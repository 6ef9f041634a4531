import Amdkfd.Ras.RecordRing

/-!
# Initialisation from any content

`amdgpu_ras_eeprom_init` computes the count and the first record from fields of the header that
nothing checks, and a checksum that is wrong is only reported. With the tag of a bad table and
`amdgpu_bad_page_threshold` zero it makes a new table.
-/

namespace Amdkfd.Ras

open Lib List

/-! ## Calls -/

def recordErrTypeStr : List String := ["ignore", "re", "ue"]

def rasRiToAi (c : Control) (i : Nat) : Nat := (i + c.rasFri) % c.rasMaxRecordCount

def debugfsRecord (t : Table) (s : Nat) : Record :=
  decodeTableRecordFromBuf (amdgpuRasEepromReadAt t (rasRiToAi t.control s) 1)

/-- The transfers of `amdgpu_ras_eeprom_read`, each with its index and its count. -/
def readTransfers (c : Control) (num : Nat) : List (Nat × Nat) :=
  let n := c.rasMaxRecordCount
  let last := c.rasFri + num - 1
  if last < n then [(c.rasFri, num)] else [(c.rasFri, n - c.rasFri), (0, last % n + 1)]

def appended (p : Params) (t : Table) (batches : List (List Record)) : Table :=
  batches.foldl (fun t record => (amdgpuRasEepromAppend p t record).1) t

/-- `amdgpu_ras_eeprom_init`: the table, `exceed_err_limit` and the result. `sums` is the error of
`__verify_ras_table_checksum`, which allocates and reads what the header asks for. It is returned
where nothing is done behind it. -/
def initOn (p : Params) (sums : Option Errno) (e : Eeprom) : Table × Bool × Option Errno :=
  let r := amdgpuRasEepromInit p ⟨freshControl, e⟩
  (r.1, r.2, if (storedHeader e).header = rasTableHdrVal ∨ r.2 then sums else none)

/-! ## The promise -/

def InTable (c : Control) (i num : Nat) : Prop :=
  rasIndexToOffset c i + num * rasTableRecordSize ≤ rasTblSizeBytes

/-- The next call stays in the area of the table. -/
structure Accesses (p : Params) (t : Table) : Prop where
  read : ∀ num, 0 < num → num ≤ t.control.rasNumRecs →
    ∀ x ∈ readTransfers t.control num, InTable t.control x.1 x.2
  append : ∀ record,
    SameOutside 0 rasTblSizeBytes t.eeprom (amdgpuRasEepromAppend p t record).1.eeprom
  /-- `amdgpu_ras_eeprom_update_header` reads the records. -/
  summed : ∀ record, 0 < record.length → record.length ≤ t.control.rasMaxRecordCount →
    let c := (amdgpuRasEepromAppendTable t record).control
    InTable c 0 c.rasNumRecs
  debugfs : ∀ s < t.control.rasNumRecs, InTable t.control (rasRiToAi t.control s) 1

/-- The ring is right, the calls stay in the area of the table, however many records are appended,
and the rows that are printed have an entry in `record_err_type_str`. -/
structure Tolerable (p : Params) (t : Table) : Prop where
  ring : InRing t.control
  accesses : ∀ batches, Accesses p (appended p t batches)
  errTypes : ∀ s < t.control.rasNumRecs,
    (recordErrTypeStr[(debugfsRecord t s).errType]?).isSome

def storedRecords (e : Eeprom) : List Record := tableRecords ⟨readControl freshControl e, e⟩

structure InitRight (p : Params) (sums : Option Errno) (e : Eeprom) : Prop where
  tolerable : (initOn p sums e).2.2 = none → (initOn p sums e).2.1 = false →
    Tolerable p (initOn p sums e).1
  kept : (storedHeader e).header = rasTableHdrVal ∨ (storedHeader e).header = rasTableHdrBad →
    tableRecords (initOn p sums e).1 = storedRecords e

structure HeaderRight (hdr : TableHeader) : Prop where
  tblSize : rasRecordStart hdr.version ≤ hdr.tblSize ∧ hdr.tblSize <
    rasRecordStart hdr.version + (rasMaxRecordCount hdr.version + 1) * rasTableRecordSize
  firstRecOffset : rasRecordStart hdr.version ≤ hdr.firstRecOffset ∧ hdr.firstRecOffset <
    rasRecordStart hdr.version + rasMaxRecordCount hdr.version * rasTableRecordSize

/-- The table is used as it is. -/
def Loads (p : Params) (sums : Option Errno) (e : Eeprom) : Prop :=
  (storedHeader e).header = rasTableHdrVal ∧ sums = none ∨
    ((storedHeader e).header = rasTableHdrBad ∧ p.badPageThreshold ≠ 0) ∧
      ((storedRecords e).length < p.badPageCntThreshold ∨ p.badPageThreshold = -1)

/-- A table that is used is right, and one that is replaced because the threshold is zero is
empty. -/
structure InitOk (p : Params) (sums : Option Errno) (e : Eeprom) : Prop where
  empty : (storedHeader e).header = rasTableHdrBad → p.badPageThreshold = 0 → storedRecords e = []
  header : Loads p sums e → HeaderRight (storedHeader e)
  errTypes : Loads p sums e → ∀ record ∈ storedRecords e, record.errType < recordErrTypeStr.length

/-! ## The area of the table -/

structure TableArea (c : Control) : Prop extends InRing c where
  fits : c.rasRecordOffset + c.rasMaxRecordCount * rasTableRecordSize ≤ rasTblSizeBytes

theorem layout_fits (version : Nat) :
    rasRecordStart version + rasMaxRecordCount version * rasTableRecordSize ≤ rasTblSizeBytes := by
  have hstart := (rasRecordStart_le version).2
  have hcount : rasMaxRecordCount version * rasTableRecordSize ≤
    rasTblSizeBytes - rasRecordStart version := Nat.div_mul_le_self ..
  have hsize : rasTblSizeBytes = 262144 := rfl
  omega

section
variable {p : Params} {t : Table} {record : List Record}

theorem TableArea.inTable {c : Control} (h : TableArea c) {i num : Nat}
    (hi : i + num ≤ c.rasMaxRecordCount) : InTable c i num := by
  have hle := Nat.mul_le_mul_right rasTableRecordSize hi
  rw [add_mul] at hle
  have hfits := h.fits
  unfold InTable rasIndexToOffset
  omega

theorem append_cases (p : Params) (t : Table) (record : List Record) :
    (amdgpuRasEepromAppend p t record).1 = t ∨
      0 < record.length ∧ record.length ≤ t.control.rasMaxRecordCount ∧
        (amdgpuRasEepromAppend p t record).1 =
          amdgpuRasEepromUpdateHeader p (amdgpuRasEepromAppendTable t record) := by
  unfold amdgpuRasEepromAppend
  split
  next hzero => exact .inl rfl
  next hzero =>
    split
    next hmany => exact .inl rfl
    next hmany => exact .inr ⟨by omega, by omega, rfl⟩

theorem TableArea.append (h : TableArea t.control) (record : List Record) :
    TableArea (amdgpuRasEepromAppend p t record).1.control := by
  rcases append_cases p t record with hsame | ⟨hpos, hlen, happend⟩
  · rw [hsame]
    exact h
  · have happ := append_spec h.toInRing hpos hlen
    have hhdr := updateHeader_spec p (amdgpuRasEepromAppendTable t record)
    have hmax := hhdr.rasMaxRecordCount.trans happ.rasMaxRecordCount
    rw [happend]
    refine ⟨⟨?_, ?_⟩, ?_⟩
    · rw [hhdr.rasFri, happ.rasFri, hmax]
      exact nextFri_lt h.fri_lt
    · rw [hhdr.rasNumRecs, happ.rasNumRecs, hmax]
      exact min_le_right ..
    · rw [hhdr.rasRecordOffset, happ.rasRecordOffset, hmax]
      exact h.fits

theorem TableArea.run (h : TableArea t.control) (batches : List (List Record)) :
    TableArea (appended p t batches).control := by
  induction batches generalizing t with
  | nil => exact h
  | cons record batches ih => exact ih (h.append record)

theorem SameOutside.writeTableStart {e : Eeprom} (h : SameOutside 0 rasTblSizeBytes e t.eeprom) :
    SameOutside 0 rasTblSizeBytes e (Ras.writeTableStart t).eeprom := by
  have hheader : SameOutside 0 rasTblSizeBytes e (writeTableHeader t).eeprom :=
    h.write (Nat.zero_le _) (by rw [length_encodeTableHeaderToBuf]; decide)
  unfold Ras.writeTableStart
  split
  · exact hheader.write (Nat.zero_le _) (by rw [length_encodeTableRasInfoToBuf]; decide)
  · exact hheader

theorem appendTableOn_complete (t : Table) (record : List Record) :
    (amdgpuRasEepromAppendTableOn .complete .complete t record).2 = none := by
  unfold amdgpuRasEepromAppendTableOn appendRingOn
  dsimp only
  split
  · rfl
  · split
    · rfl
    · split <;> rfl

theorem TableArea.append_outside (h : TableArea t.control) (record : List Record) :
    SameOutside 0 rasTblSizeBytes t.eeprom (amdgpuRasEepromAppend p t record).1.eeprom := by
  rcases append_cases p t record with hsame | ⟨hpos, hlen, happend⟩
  · rw [hsame]
    exact SameOutside.refl _ _ _
  · have hframe := @appendTableOn_frame .complete .complete _ _ h.toInRing hpos hlen
    rw [appendTableOn_eq (appendTableOn_complete t record)] at hframe
    have hring : SameOutside 0 rasTblSizeBytes t.eeprom
        (amdgpuRasEepromAppendTable t record).eeprom := by
      intro addr haddr
      have hfits := h.fits
      exact hframe.outside addr (.inr (by omega))
    rw [happend]
    exact SameOutside.writeTableStart hring

theorem TableArea.accesses (h : TableArea t.control) : Accesses p t := by
  have hn : 0 < t.control.rasMaxRecordCount := Nat.zero_lt_of_lt h.fri_lt
  refine ⟨fun num hpos hnum x hx => ?_, h.append_outside, fun record hpos hlen => ?_,
    fun s hs => h.inTable (Nat.mod_lt _ hn)⟩
  · have hle := h.numRecs_le
    have hfri := h.fri_lt
    unfold readTransfers at hx
    dsimp only at hx
    split at hx
    next hlast =>
      obtain rfl := mem_singleton.mp hx
      exact h.inTable (by omega)
    next hlast =>
      have hmod := Nat.mod_lt (t.control.rasFri + num - 1) hn
      rcases mem_pair.mp hx with rfl | rfl
      · exact h.inTable (by omega)
      · exact h.inTable (by omega)
  · have happ := append_spec h.toInRing hpos hlen
    have hfits := h.fits
    have hcount : (amdgpuRasEepromAppendTable t record).control.rasNumRecs ≤
        t.control.rasMaxRecordCount := by
      rw [happ.rasNumRecs]
      exact min_le_right ..
    have hle := Nat.mul_le_mul_right rasTableRecordSize hcount
    unfold InTable rasIndexToOffset
    dsimp only
    rw [happ.rasRecordOffset]
    omega

theorem tableRecords_eq (t : Table) :
    tableRecords t = (range t.control.rasNumRecs).map (debugfsRecord t) := by
  unfold tableRecords ringWindow
  rw [map_map]
  refine map_congr_left fun s _ => ?_
  rw [debugfsRecord, readAt_slots]
  simp [rasRiToAi, add_comm]

theorem errTypes_iff (t : Table) :
    (∀ s < t.control.rasNumRecs, (recordErrTypeStr[(debugfsRecord t s).errType]?).isSome) ↔
      ∀ record ∈ tableRecords t, record.errType < recordErrTypeStr.length := by
  rw [tableRecords_eq, forall_mem_map]
  simp only [isSome_getElem?, mem_range]

theorem tolerable_iff (hlayout : ∃ v, t.control.rasRecordOffset = rasRecordStart v ∧
      t.control.rasMaxRecordCount = rasMaxRecordCount v) :
    Tolerable p t ↔ InRing t.control ∧
      ∀ record ∈ tableRecords t, record.errType < recordErrTypeStr.length := by
  obtain ⟨v, hoff, hmax⟩ := hlayout
  constructor
  · intro h
    exact ⟨h.ring, (errTypes_iff t).mp h.errTypes⟩
  · rintro ⟨hring, herr⟩
    have harea : TableArea t.control := by
      refine ⟨hring, ?_⟩
      rw [hoff, hmax]
      exact layout_fits v
    exact ⟨hring, fun batches => (harea.run batches).accesses, (errTypes_iff t).mpr herr⟩

end

/-! ## Initialisation -/

section
variable {p : Params} {e : Eeprom}

/-- The subtraction and the division of the source, whose result is too large where the difference
is negative. -/
theorem offsetToIndex_lt_iff {x start n : Nat} (hx : x < 2 ^ 32) (hstart : start ≤ 276)
    (hn : n ≤ 2 ^ 16) : (x + 2 ^ 32 - start) % 2 ^ 32 / rasTableRecordSize < n ↔
      start ≤ x ∧ x < start + n * rasTableRecordSize := by
  unfold rasTableRecordSize
  omega

theorem inRing_iff (e : Eeprom) :
    InRing (readControl freshControl e) ↔ HeaderRight (storedHeader e) := by
  have hstart := (rasRecordStart_le (storedHeader e).version).2
  have hcount := (rasMaxRecordCount_bounds (storedHeader e).version).2
  have hnum := offsetToIndex_lt_iff (readAt_lt _ 12 4 : (storedHeader e).tblSize < _) hstart hcount
  have hfri := offsetToIndex_lt_iff (readAt_lt _ 8 4 : (storedHeader e).firstRecOffset < _) hstart
    hcount.le
  constructor
  · intro h
    exact ⟨hnum.mp (Nat.lt_succ_of_le h.numRecs_le), hfri.mp h.fri_lt⟩
  · intro h
    exact ⟨hfri.mpr h.firstRecOffset, Nat.le_of_lt_succ (hnum.mpr h.tblSize)⟩

/-- The tables differ in their headers only. -/
structure SameRing (t t' : Table) : Prop where
  control : t'.control = { t.control with tblHdr := t'.control.tblHdr, tblRai := t'.control.tblRai }
  slots : slots t' = slots t

theorem SameRing.readTableRasInfo (t : Table) : SameRing t (readTableRasInfo t) := by
  rw [readTableRasInfo_eq]
  exact ⟨rfl, rfl⟩

theorem SameRing.correctHeaderTag {t t' : Table} (h : SameRing t t')
    (hoff : rasTableHeaderSize ≤ t.control.rasRecordOffset) (header : Nat) :
    SameRing t (amdgpuRasEepromCorrectHeaderTag t' header) := by
  have hcontrol := h.control
  refine ⟨?_, ?_⟩
  · unfold amdgpuRasEepromCorrectHeaderTag writeTableHeader
    rw [hcontrol]
  · rw [← h.slots]
    have hoff' : rasTableHeaderSize ≤ t'.control.rasRecordOffset := by
      rw [hcontrol]
      exact hoff
    funext i
    exact writeTableHeader_above (hoff'.trans (Nat.le_add_right ..)) _

theorem init_keeps (hmakes : ¬ MakesTable p e) :
    SameRing ⟨readControl freshControl e, e⟩ (amdgpuRasEepromInit p ⟨freshControl, e⟩).1 ∧
      ((amdgpuRasEepromInit p ⟨freshControl, e⟩).2 = false ↔
        (storedHeader e).header = rasTableHdrVal ∨
          (readControl freshControl e).rasNumRecs < p.badPageCntThreshold ∨
            p.badPageThreshold = -1) := by
  have hinfo := SameRing.readTableRasInfo ⟨readControl freshControl e, e⟩
  have htag : (readControl freshControl e).tblHdr = storedHeader e := rfl
  unfold amdgpuRasEepromInit
  dsimp only
  rw [htag]
  split
  next hval => exact ⟨hinfo, iff_of_true rfl (.inl hval)⟩
  next hval =>
    split
    next hbad =>
      rw [hinfo.control]
      split
      next hbelow =>
        exact ⟨hinfo.correctHeaderTag (rasRecordStart_le _).1 _,
          iff_of_true rfl (.inr (.inl hbelow))⟩
      next hbelow =>
        refine ⟨hinfo, ?_⟩
        simp [hval, hbelow]
    next hbad => exact absurd ⟨hval, hbad⟩ hmakes

variable (sums : Option Errno)

theorem loads_iff (hmakes : ¬ MakesTable p e) :
    (initOn p sums e).2.2 = none ∧ (initOn p sums e).2.1 = false ↔ Loads p sums e := by
  have hexceed := (init_keeps hmakes).2
  have hlen : (storedRecords e).length = (readControl freshControl e).rasNumRecs := by
    simp [storedRecords, tableRecords]
  have hdiff : rasTableHdrVal ≠ rasTableHdrBad := by decide
  unfold initOn Loads
  dsimp only
  rw [hlen]
  by_cases hval : (storedHeader e).header = rasTableHdrVal
  · have hused := hexceed.mpr (.inl hval)
    simp [hval, hused, hdiff]
  · have hbad : (storedHeader e).header = rasTableHdrBad ∧ p.badPageThreshold ≠ 0 := by
      by_contra hbad
      exact hmakes ⟨hval, hbad⟩
    rw [or_iff_right hval] at hexceed
    rw [← hexceed]
    cases (amdgpuRasEepromInit p ⟨freshControl, e⟩).2 <;> simp [hbad, hdiff.symm]

theorem initRight_of_makes (hmakes : MakesTable p e) : InitRight p sums e ↔ InitOk p sums e := by
  have hinv := @Inv.of_makes p e hmakes []
  have hnum : (initOn p sums e).1.control.rasNumRecs = 0 :=
    hinv.numRecs.trans (by simp [load])
  have hnil : tableRecords (initOn p sums e).1 = [] := tableRecords_nil hnum
  have hloads : ¬ Loads p sums e := by
    rintro (⟨hval, -⟩ | ⟨hbad, -⟩)
    · exact hmakes.1 hval
    · exact hmakes.2 hbad
  have htol : Tolerable p (initOn p sums e).1 := by
    refine (@tolerable_iff p (initOn p sums e).1 hinv.layout).mpr ⟨hinv.ring, ?_⟩
    rw [hnil]
    exact forall_mem_nil _
  constructor
  · intro h
    exact ⟨fun hbad _ => (h.kept (.inr hbad)).symm.trans hnil, fun h => absurd h hloads,
      fun h => absurd h hloads⟩
  · intro h
    refine ⟨fun _ _ => htol, fun htag => ?_⟩
    have hbad := htag.resolve_left hmakes.1
    have hzero : p.badPageThreshold = 0 := by
      by_contra hne
      exact hmakes.2 ⟨hbad, hne⟩
    rw [hnil, h.empty hbad hzero]

theorem initRight_of_keeps (hmakes : ¬ MakesTable p e) : InitRight p sums e ↔ InitOk p sums e := by
  have hsame : SameRing ⟨readControl freshControl e, e⟩ (initOn p sums e).1 :=
    (init_keeps hmakes).1
  have hcontrol := hsame.control
  have hrecords : tableRecords (initOn p sums e).1 = storedRecords e := by
    unfold storedRecords tableRecords
    rw [hsame.slots, hcontrol]
  have hring : InRing (initOn p sums e).1.control ↔ InRing (readControl freshControl e) := by
    rw [hcontrol]
    exact ⟨fun h => ⟨h.fri_lt, h.numRecs_le⟩, fun h => ⟨h.fri_lt, h.numRecs_le⟩⟩
  have htol : Tolerable p (initOn p sums e).1 ↔ HeaderRight (storedHeader e) ∧
      ∀ record ∈ storedRecords e, record.errType < recordErrTypeStr.length := by
    rw [← inRing_iff, ← hring, ← hrecords]
    refine tolerable_iff ⟨(storedHeader e).version, ?_, ?_⟩ <;> rw [hcontrol] <;> rfl
  have hempty : (storedHeader e).header = rasTableHdrBad → p.badPageThreshold ≠ 0 := by
    intro hbad hzero
    refine hmakes ⟨?_, fun h => h.2 hzero⟩
    rw [hbad]
    decide
  have hloads := loads_iff sums hmakes
  constructor
  · intro h
    refine ⟨fun hbad hzero => absurd hzero (hempty hbad), fun hl => ?_, fun hl => ?_⟩
    · obtain ⟨hnone, hlimit⟩ := hloads.mpr hl
      exact (htol.mp (h.tolerable hnone hlimit)).1
    · obtain ⟨hnone, hlimit⟩ := hloads.mpr hl
      exact (htol.mp (h.tolerable hnone hlimit)).2
  · intro h
    refine ⟨fun hnone hlimit => ?_, fun _ => hrecords⟩
    have hl := hloads.mp ⟨hnone, hlimit⟩
    exact htol.mpr ⟨h.header hl, h.errTypes hl⟩

/-- Which contents are initialised from as they should be. -/
theorem initRight_iff (p : Params) (sums : Option Errno) (e : Eeprom) :
    InitRight p sums e ↔ InitOk p sums e := by
  by_cases hmakes : MakesTable p e
  · exact initRight_of_makes sums hmakes
  · exact initRight_of_keeps sums hmakes

end

/-- An empty table with a right checksum, whose first record begins in the header. -/
def exFirst : Eeprom :=
  amdgpuEepromWrite (fun _ => 0) 0
    (encodeTableHeaderToBuf ⟨rasTableHdrVal, rasTableVerV1, 0, 20, 199⟩)

theorem init_not_right : ¬ InitRight (exParams false) none exFirst := by
  intro h
  have hring := (h.tolerable (by decide +kernel) (by decide +kernel)).ring
  exact absurd hring.fri_lt (by decide +kernel)

end Amdkfd.Ras
