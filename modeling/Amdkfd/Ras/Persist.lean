import Amdkfd.Lib.Run
import Amdkfd.Ras.Header

/-!
# What the table keeps

Loads of the driver, resets and appends in any order, from an EEPROM without a table. The records
appended since the last reset are followed beside the model. Two things break the promise:
`amdgpu_ras_eeprom_reset_table` sets the version of the table but neither where the records begin
nor how many there can be, and no append writes the index of the first record to the header.
-/

namespace Amdkfd.Ras

open Lib List

/-! ## Runs -/

/-- The driver with its table, and the records appended since the last reset. -/
structure Driver where
  params : Params
  table : Table
  appended : List Record

inductive Op
  | reload (p : Params)
  | reset
  | append (record : List Record)

def freshControl : Control := ⟨⟨0, 0, 0, 0, 0⟩, ⟨0, 0, 0⟩, 0, 0, 0, 0, 0, false⟩

/-- `amdgpu_ras_eeprom_init` finds no table and makes one. -/
def MakesTable (p : Params) (e : Eeprom) : Prop :=
  (storedHeader e).header ≠ rasTableHdrVal ∧
    ¬ ((storedHeader e).header = rasTableHdrBad ∧ p.badPageThreshold ≠ 0)
  deriving Decidable

def load (p : Params) (e : Eeprom) (appended : List Record) : Driver :=
  { params := p
    table := (amdgpuRasEepromInit p ⟨freshControl, e⟩).1
    appended := if MakesTable p e then [] else appended }

def step (s : Driver) : Op → Driver
  | .reload p => load p s.table.eeprom s.appended
  | .reset => { s with table := amdgpuRasEepromResetTable s.params s.table, appended := [] }
  | .append record =>
    let r := amdgpuRasEepromAppend s.params s.table record
    { s with
      table := r.1
      appended := match r.2 with
        | .ok _ => s.appended ++ record
        | .error _ => s.appended }

structure Blank where
  eeprom : Eeprom
  tag : (storedHeader eeprom).header ≠ rasTableHdrVal ∧
    (storedHeader eeprom).header ≠ rasTableHdrBad

def start (p : Params) (blank : Blank) : Driver := load p blank.eeprom []

/-! ## The promise -/

def lastN {α : Type} (n : Nat) (l : List α) : List α := l.drop (l.length - n)

structure Kept (s : Driver) : Prop where
  numRecs : s.table.control.rasNumRecs = min s.appended.length s.table.control.rasMaxRecordCount
  read : s.appended ≠ [] →
    (amdgpuRasEepromRead s.table s.table.control.rasNumRecs).2 =
      .ok ((lastN s.table.control.rasMaxRecordCount s.appended).map Record.stored)

/-- Records are appended behind the header, and the driver is loaded again only when the table is
replaced or empty, or when its first record is in front and all are where its version has them. -/
def StepOk (s : Driver) : Op → Prop
  | .reload p => MakesTable p s.table.eeprom ∨ s.table.control.rasNumRecs = 0 ∨
      (s.table.control.rasFri = 0 ∧
        s.table.control.rasRecordOffset = rasRecordStart s.table.control.tblHdr.version)
  | .reset => True
  | .append _ => RoomForStart s.table.control

/-! ## Lists -/

section
variable {α : Type} {n : Nat}

theorem lastN_append (xs ys : List α) :
    (lastN n xs ++ ys).drop (min xs.length n + ys.length - n) = lastN n (xs ++ ys) := by
  unfold lastN
  rw [length_append, ← drop_append_of_le_length (by omega), drop_drop]
  congr 1
  omega

@[simp] theorem lastN_nil : lastN n ([] : List α) = [] := by
  simp [lastN]

end

/-! ## What a step keeps -/

def Known (version : Nat) : Prop := version = rasTableVerV1 ∨ version = rasTableVerV21

structure Inv (s : Driver) : Prop where
  known : Known s.table.control.tblHdr.version
  tag : s.table.control.tblHdr.header = rasTableHdrVal ∨
    s.table.control.tblHdr.header = rasTableHdrBad
  firstRecOffset : s.table.control.tblHdr.firstRecOffset =
    rasRecordStart s.table.control.tblHdr.version
  tblSize : s.table.control.tblHdr.tblSize =
    rasRecordStart s.table.control.tblHdr.version +
      s.table.control.rasNumRecs * rasTableRecordSize
  stored : storedHeader s.table.eeprom = s.table.control.tblHdr
  ring : InRing s.table.control
  layout : ∃ v, s.table.control.rasRecordOffset = rasRecordStart v ∧
    s.table.control.rasMaxRecordCount = rasMaxRecordCount v
  numRecs : s.table.control.rasNumRecs = min s.appended.length s.table.control.rasMaxRecordCount
  records : tableRecords s.table =
    (lastN s.table.control.rasMaxRecordCount s.appended).map Record.stored

section
variable {s : Driver}

theorem rasRecordStart_le (version : Nat) : 20 ≤ rasRecordStart version ∧
    rasRecordStart version ≤ 276 := by
  unfold rasRecordStart rasTableHeaderSize rasTableV21InfoSize
  split <;> omega

theorem rasMaxRecordCount_bounds (version : Nat) : 0 < rasMaxRecordCount version ∧
    rasMaxRecordCount version < 2 ^ 16 := by
  have := rasRecordStart_le version
  unfold rasMaxRecordCount rasTblSizeBytes rasTableRecordSize
  omega

theorem rasMaxRecordCount_congr {v w : Nat} (h : rasRecordStart v = rasRecordStart w) :
    rasMaxRecordCount v = rasMaxRecordCount w := by
  rw [rasMaxRecordCount, rasMaxRecordCount, h]

theorem tableRecords_nil {t : Table} (h : t.control.rasNumRecs = 0) : tableRecords t = [] := by
  rw [tableRecords, h]
  rfl

theorem headerFits {hdr : TableHeader} {num : Nat} (hknown : Known hdr.version)
    (htag : hdr.header = rasTableHdrVal ∨ hdr.header = rasTableHdrBad)
    (hfirst : hdr.firstRecOffset = rasRecordStart hdr.version)
    (hsize : hdr.tblSize = rasRecordStart hdr.version + num * rasTableRecordSize)
    (hnum : num < 2 ^ 16) (hcsum : hdr.checksum < 2 ^ 32) : HeaderFits hdr := by
  have hstart := rasRecordStart_le hdr.version
  refine ⟨?_, ?_, by omega, ?_, hcsum⟩
  · rcases htag with h | h <;> rw [h] <;> decide
  · rcases hknown with h | h <;> rw [h] <;> decide
  · rw [hsize]
    unfold rasTableRecordSize
    omega

theorem reset_inv (p : Params) {t : Table} (hlayout : ∃ v,
    t.control.rasRecordOffset = rasRecordStart v ∧
      t.control.rasMaxRecordCount = rasMaxRecordCount v) :
    Inv ⟨p, amdgpuRasEepromResetTable p t, []⟩ := by
  obtain ⟨v, hoff, hmax⟩ := hlayout
  unfold amdgpuRasEepromResetTable
  dsimp only
  generalize hversion : (if p.setsVersion = true then rasTableVerV21 else rasTableVerV1) = version
  have hknown : Known version := by
    subst hversion
    unfold Known
    split <;> simp
  generalize (if version = rasTableVerV21 then _ else _ : RasInfo) = rai
  generalize hcsum : negByte _ = csum
  have hfits : HeaderFits ⟨rasTableHdrVal, version, rasRecordStart version,
      rasRecordStart version, csum⟩ :=
    @headerFits _ 0 hknown (.inl rfl) rfl (by simp) (by omega) (by
      rw [← hcsum]
      exact negByte_lt _)
  constructor
  all_goals try dsimp only
  all_goals try rw [writeTableStart_control]
  · exact hknown
  · exact .inl rfl
  · simp
  · exact writeTableStart_header hfits
  · exact ⟨by simpa [hmax] using (rasMaxRecordCount_bounds v).1, Nat.zero_le _⟩
  · exact ⟨v, hoff, hmax⟩
  · simp
  · rw [tableRecords_nil rfl]
    simp

theorem readControl_eq {c : Control} {e : Eeprom} {hdr : TableHeader} {num : Nat}
    (hstored : storedHeader e = hdr)
    (hfirst : hdr.firstRecOffset = rasRecordStart hdr.version)
    (hsize : hdr.tblSize = rasRecordStart hdr.version + num * rasTableRecordSize)
    (hnum : num < 2 ^ 16) :
    readControl c e =
      { c with
        tblHdr := hdr
        rasNumRecs := num
        rasRecordOffset := rasRecordStart hdr.version
        rasMaxRecordCount := rasMaxRecordCount hdr.version
        rasFri := 0 } := by
  subst hstored
  have hstart := rasRecordStart_le (storedHeader e).version
  have hrecs : ((storedHeader e).tblSize + 2 ^ 32 - rasRecordStart (storedHeader e).version) %
      2 ^ 32 / rasTableRecordSize = num := by
    rw [hsize]
    unfold rasTableRecordSize
    omega
  have hfri : ((storedHeader e).firstRecOffset + 2 ^ 32 -
      rasRecordStart (storedHeader e).version) % 2 ^ 32 / rasTableRecordSize = 0 := by
    rw [hfirst]
    unfold rasTableRecordSize
    omega
  rw [← hfri, ← hrecs]
  rfl

theorem readTableRasInfo_eq (t : Table) :
    readTableRasInfo t = { t with control :=
      { t.control with tblRai := (readTableRasInfo t).control.tblRai } } := by
  unfold readTableRasInfo
  split <;> rfl

structure Found (t : Table) (version num : Nat) (records : List Record) : Prop where
  tblVersion : t.control.tblHdr.version = version
  tag : t.control.tblHdr.header = rasTableHdrVal ∨ t.control.tblHdr.header = rasTableHdrBad
  firstRecOffset : t.control.tblHdr.firstRecOffset = rasRecordStart version
  tblSize : t.control.tblHdr.tblSize = rasRecordStart version + num * rasTableRecordSize
  stored : storedHeader t.eeprom = t.control.tblHdr
  rasNumRecs : t.control.rasNumRecs = num
  rasFri : t.control.rasFri = 0
  rasRecordOffset : t.control.rasRecordOffset = rasRecordStart version
  rasMaxRecordCount : t.control.rasMaxRecordCount = rasMaxRecordCount version
  records : tableRecords t = records

section
variable {t : Table} {version num : Nat} {records : List Record}

theorem Found.readTableRasInfo (h : Found t version num records) :
    Found (readTableRasInfo t) version num records := by
  rw [readTableRasInfo_eq]
  exact ⟨h.tblVersion, h.tag, h.firstRecOffset, h.tblSize, h.stored, h.rasNumRecs, h.rasFri,
    h.rasRecordOffset, h.rasMaxRecordCount, h.records⟩

theorem Found.correctHeaderTag (h : Found t version num records) (hknown : Known version)
    (hnum : num < 2 ^ 16) :
    Found (amdgpuRasEepromCorrectHeaderTag t rasTableHdrVal) version num records := by
  obtain ⟨rfl, -, hfirst, hsize, -, hnumRecs, hfri, hoff, hmax, hrecords⟩ := h
  unfold amdgpuRasEepromCorrectHeaderTag
  dsimp only
  generalize hcsum : negByte _ = csum
  have hfits : HeaderFits { t.control.tblHdr with header := rasTableHdrVal, checksum := csum } :=
    headerFits hknown (.inl rfl) hfirst hsize hnum (by
      rw [← hcsum]
      exact negByte_lt _)
  have hread : ∀ t' : Table, t'.control.tblHdr =
      { t.control.tblHdr with header := rasTableHdrVal, checksum := csum } →
      storedHeader (writeTableHeader t').eeprom = t'.control.tblHdr := by
    intro t' ht'
    rw [storedHeader, amdgpuEepromRead, writeTableHeader_read, ht', decode_encode_header hfits]
  refine ⟨rfl, .inl rfl, hfirst, hsize, hread _ rfl, hnumRecs, hfri, hoff, hmax, ?_⟩
  rw [← hrecords]
  unfold tableRecords
  congr 2
  funext i
  have hstart := (rasRecordStart_le t.control.tblHdr.version).1
  rw [← hoff] at hstart
  exact writeTableHeader_above (Nat.le_trans hstart (Nat.le_add_right ..)) _

theorem init_found {p : Params} {e : Eeprom} (hmakes : ¬ MakesTable p e) (hknown : Known version)
    (hnum : num < 2 ^ 16) (h : Found ⟨readControl freshControl e, e⟩ version num records) :
    Found (amdgpuRasEepromInit p ⟨freshControl, e⟩).1 version num records := by
  unfold amdgpuRasEepromInit
  dsimp only
  split
  · exact h.readTableRasInfo
  · next hval =>
    split
    · split
      · exact h.readTableRasInfo.correctHeaderTag hknown hnum
      · exact h.readTableRasInfo
    · next hbad => exact absurd ⟨hval, hbad⟩ hmakes

end

theorem init_makes {p : Params} {e : Eeprom} (hmakes : MakesTable p e) :
    (amdgpuRasEepromInit p ⟨freshControl, e⟩).1 =
      amdgpuRasEepromResetTable p ⟨readControl freshControl e, e⟩ := by
  have hval : (readControl freshControl e).tblHdr.header ≠ rasTableHdrVal := hmakes.1
  have hbad : ¬ ((readControl freshControl e).tblHdr.header = rasTableHdrBad ∧
      p.badPageThreshold ≠ 0) := hmakes.2
  unfold amdgpuRasEepromInit
  dsimp only
  rw [if_neg hval, if_neg hbad]

theorem Inv.numRecs_lt (h : Inv s) : s.table.control.rasNumRecs < 2 ^ 16 := by
  obtain ⟨v, -, hmax⟩ := h.layout
  have := (rasMaxRecordCount_bounds v).2
  have := h.ring.numRecs_le
  omega

theorem Inv.of_makes {p : Params} {e : Eeprom} (hmakes : MakesTable p e)
    (appended : List Record) : Inv (load p e appended) := by
  unfold load
  rw [if_pos hmakes, init_makes hmakes]
  exact reset_inv p ⟨(storedHeader e).version, rfl, rfl⟩

theorem Inv.reload (h : Inv s) (p : Params) (hok : StepOk s (.reload p)) :
    Inv (load p s.table.eeprom s.appended) := by
  by_cases hmakes : MakesTable p s.table.eeprom
  · exact Inv.of_makes hmakes _
  have hcontrol := @readControl_eq freshControl _ _ _ h.stored h.firstRecOffset h.tblSize
    h.numRecs_lt
  have hbounds := rasMaxRecordCount_bounds s.table.control.tblHdr.version
  -- The records and how many there can be, as the next driver sees them.
  have hrecords : tableRecords ⟨readControl freshControl s.table.eeprom, s.table.eeprom⟩ =
        (lastN (rasMaxRecordCount s.table.control.tblHdr.version) s.appended).map Record.stored ∧
      s.table.control.rasNumRecs =
        min s.appended.length (rasMaxRecordCount s.table.control.tblHdr.version) := by
    rcases hok with hok | hok | ⟨hfri, hoff⟩
    · exact absurd hok hmakes
    · have hempty : s.appended = [] := by
        have hnum := h.numRecs
        have hlt := h.ring.fri_lt
        rw [hok] at hnum
        exact eq_nil_of_length_eq_zero (by omega)
      rw [hempty, hok]
      refine ⟨?_, by simp⟩
      rw [tableRecords_nil (by rw [hcontrol]; exact hok)]
      simp
    · obtain ⟨v, hoff', hmax⟩ := h.layout
      have hsame : s.table.control.rasMaxRecordCount =
          rasMaxRecordCount s.table.control.tblHdr.version :=
        hmax.trans (rasMaxRecordCount_congr (hoff'.symm.trans hoff))
      rw [← hsame]
      refine ⟨?_, h.numRecs⟩
      rw [← h.records, hcontrol]
      unfold tableRecords slots
      dsimp only
      rw [hfri, hoff, hsame]
  have hfound : Found (amdgpuRasEepromInit p ⟨freshControl, s.table.eeprom⟩).1
      s.table.control.tblHdr.version s.table.control.rasNumRecs
      ((lastN (rasMaxRecordCount s.table.control.tblHdr.version) s.appended).map
        Record.stored) := by
    refine init_found hmakes h.known h.numRecs_lt ?_
    have hrecs := hrecords.1
    rw [hcontrol] at hrecs ⊢
    exact ⟨rfl, h.tag, h.firstRecOffset, h.tblSize, h.stored, rfl, rfl, rfl, rfl, hrecs⟩
  unfold load
  rw [if_neg hmakes]
  generalize (amdgpuRasEepromInit p ⟨freshControl, s.table.eeprom⟩).1 = t at hfound
  obtain ⟨hversion, htag, hfirst, hsize, hstored, hnumRecs, hfri, hoff, hmax, hrecs⟩ := hfound
  have hnum := hrecords.2
  exact
    { known := by rw [hversion]; exact h.known
      tag := htag
      firstRecOffset := by rw [hversion]; exact hfirst
      tblSize := by rw [hversion, hnumRecs]; exact hsize
      stored := hstored
      ring := ⟨by rw [hfri, hmax]; exact hbounds.1, by rw [hnumRecs, hmax]; omega⟩
      layout := ⟨_, hoff, hmax⟩
      numRecs := by rw [hnumRecs, hmax]; exact hnum
      records := by rw [hmax]; exact hrecs }

theorem Inv.append (h : Inv s) (record : List Record) (hroom : RoomForStart s.table.control) :
    Inv (step s (.append record)) := by
  unfold Ras.step
  dsimp only
  by_cases hpos : record.length = 0
  · have heq : amdgpuRasEepromAppend s.params s.table record = (s.table, .error .einval) := by
      rw [amdgpuRasEepromAppend, if_pos hpos]
    rw [heq]
    exact h
  by_cases hlen : s.table.control.rasMaxRecordCount < record.length
  · have heq : amdgpuRasEepromAppend s.params s.table record = (s.table, .error .einval) := by
      rw [amdgpuRasEepromAppend, if_neg hpos, if_pos hlen]
    rw [heq]
    exact h
  obtain ⟨t1, happ, hupd, hroom1⟩ := appended_spec s.params h.ring hroom
    (Nat.pos_of_ne_zero hpos) (Nat.le_of_not_lt hlen)
  have hok : (amdgpuRasEepromAppend s.params s.table record).2 = .ok () := by
    rw [amdgpuRasEepromAppend, if_neg hpos, if_neg hlen]
  rw [hok]
  generalize (amdgpuRasEepromAppend s.params s.table record).1 = t at hupd
  obtain ⟨v, hoff, hmax⟩ := h.layout
  have hbounds := rasMaxRecordCount_bounds v
  have hversion : t.control.tblHdr.version = s.table.control.tblHdr.version := by
    rw [hupd.version, happ.tblHdr]
  have hN : t.control.rasMaxRecordCount = s.table.control.rasMaxRecordCount := by
    rw [hupd.rasMaxRecordCount, happ.rasMaxRecordCount]
  have hnumRecs : t.control.rasNumRecs =
      min (s.appended ++ record).length t.control.rasMaxRecordCount := by
    rw [hupd.rasNumRecs, happ.rasNumRecs, h.numRecs, hN, length_append]
    omega
  have hle : t.control.rasNumRecs ≤ t.control.rasMaxRecordCount := by omega
  have hfirst : t.control.tblHdr.firstRecOffset = rasRecordStart t.control.tblHdr.version := by
    rw [hupd.firstRecOffset, happ.tblHdr, h.firstRecOffset, hversion]
  have hsize : t.control.tblHdr.tblSize = rasRecordStart t.control.tblHdr.version +
      t.control.rasNumRecs * rasTableRecordSize := by
    rw [hupd.tblSize, hupd.rasNumRecs, hupd.version]
  have htag : t.control.tblHdr.header = rasTableHdrVal ∨
      t.control.tblHdr.header = rasTableHdrBad := by
    rw [hupd.header, happ.tblHdr]
    split
    · exact .inr rfl
    · exact h.tag
  have hknown : Known t.control.tblHdr.version := by
    rw [hversion]
    exact h.known
  have hrecords : tableRecords t =
      (lastN t.control.rasMaxRecordCount (s.appended ++ record)).map Record.stored := by
    rw [hupd.records hroom1, happ.records, h.records, h.numRecs, hN, ← map_append,
      ← map_drop, lastN_append]
  exact
    { known := hknown
      tag := htag
      firstRecOffset := hfirst
      tblSize := hsize
      stored := hupd.stored (headerFits hknown htag hfirst hsize (by omega) hupd.checksum)
      ring := ⟨by
        rw [hupd.rasFri, happ.rasFri, hN]
        exact nextFri_lt h.ring.fri_lt, hle⟩
      layout := ⟨v, by rw [hupd.rasRecordOffset, happ.rasRecordOffset, hoff], hN.trans hmax⟩
      numRecs := hnumRecs
      records := hrecords }

theorem Inv.step (h : Inv s) (op : Op) (hok : StepOk s op) : Inv (step s op) := by
  cases op with
  | reload p => exact h.reload p hok
  | reset => exact reset_inv s.params h.layout
  | append record => exact h.append record hok

theorem Inv.start (p : Params) (blank : Blank) : Inv (start p blank) :=
  Inv.of_makes ⟨blank.tag.1, fun hbad => blank.tag.2 hbad.1⟩ []

theorem Inv.kept (h : Inv s) : Kept s := by
  refine ⟨h.numRecs, fun hne => ?_⟩
  have hpos := length_pos_iff.mpr hne
  have hnum := h.numRecs
  have hlt := h.ring.fri_lt
  rw [read_spec h.ring (by omega), h.records]

theorem Inv.append_fits (h : Inv s) {record : List Record} (hroom : RoomForStart s.table.control)
    (hpos : record ≠ [])
    (hfits : s.appended.length + record.length ≤ s.table.control.rasMaxRecordCount) :
    tableRecords (Ras.step s (.append record)).table =
      tableRecords s.table ++ record.map Record.stored := by
  have hlen := length_pos_iff.mpr hpos
  obtain ⟨t1, happ, hupd, hroom1⟩ := appended_spec s.params h.ring hroom hlen
    (Nat.le_of_add_left_le hfits)
  have hnum := h.numRecs
  change tableRecords (amdgpuRasEepromAppend s.params s.table record).1 = _
  rw [hupd.records hroom1, happ.records, Nat.sub_eq_zero_of_le (by omega), drop_zero]

end

/-! ## Runs -/

/-- Along a run in which records are appended behind the header, and the driver is not loaded again
on a table whose first record is not in front or which is not where its version has it, the table
keeps the last records that there is room for, and an append overwrites nothing that there is room
for. -/
theorem kept_of_stepsOk (p : Params) (blank : Blank) (ops : List Op)
    (hok : StepsOk step StepOk (start p blank) ops) (n : Nat) :
    Kept (run step (start p blank) (ops.take n)) ∧
    ∀ record, record ≠ [] → RoomForStart (run step (start p blank) (ops.take n)).table.control →
      (run step (start p blank) (ops.take n)).appended.length + record.length ≤
        (run step (start p blank) (ops.take n)).table.control.rasMaxRecordCount →
      tableRecords (step (run step (start p blank) (ops.take n)) (.append record)).table =
        tableRecords (run step (start p blank) (ops.take n)).table ++
          record.map Record.stored := by
  have hprefix : StepsOk step StepOk (start p blank) (ops.take n) := by
    rw [← take_append_drop n ops] at hok
    exact ((stepsOk_append step).mp hok).1
  have hinv : Inv (run step (start p blank) (ops.take n)) :=
    run_inv_of_stepsOk (fun s op h hop => h.step op hop) (Inv.start p blank) hprefix
  exact ⟨hinv.kept, fun record hpos hroom hfits => hinv.append_fits hroom hpos hfits⟩

instance (s : Driver) : ∀ op, Decidable (StepOk s op)
  | .reload _ => inferInstanceAs (Decidable (_ ∨ _ ∨ (_ ∧ _)))
  | .reset => isTrue trivial
  | .append _ => inferInstanceAs (Decidable (_ ≤ _))

def exBlank : Blank := ⟨fun _ => 0xFF, by decide⟩

def exRecord : Record := ⟨0, 5, 0, 0, 0, 0, 0⟩

def exParams (setsVersion : Bool) : Params := ⟨0, 0, setsVersion⟩

def exKeptOps : List Op :=
  [.reload (exParams true), .append [exRecord, ⟨0, 7, 0, 0, 0, 0, 0⟩], .reload (exParams true)]

/-- With version 2.1, two records survive a load of the driver; the load before makes the record
area that of the version. -/
theorem kept_of_stepsOk_reload :
    Kept (run step (start (exParams true) exBlank) exKeptOps) :=
  (kept_of_stepsOk (exParams true) exBlank exKeptOps (by decide +kernel) 3).1

def exOverwritten : Driver := run step (start (exParams true) exBlank) [.append [exRecord]]

/-- The information area is written over the record. -/
theorem kept_broken :
    ¬ ∀ (p : Params) (blank : Blank) (ops : List Op) (n : Nat),
      Kept (run step (start p blank) (ops.take n)) := by
  intro h
  have hread := (h (exParams true) exBlank [.append [exRecord]] 1).read (by decide +kernel)
  have hnum : exOverwritten.table.control.rasNumRecs = 1 := by decide +kernel
  have hlast : (lastN exOverwritten.table.control.rasMaxRecordCount
      exOverwritten.appended).map Record.stored = [exRecord.stored] := by decide +kernel
  have hdiff : (amdgpuRasEepromRead exOverwritten.table 1).2.toOption ≠
      some [exRecord.stored] := by decide +kernel
  change (amdgpuRasEepromRead exOverwritten.table exOverwritten.table.control.rasNumRecs).2 =
    .ok ((lastN exOverwritten.table.control.rasMaxRecordCount exOverwritten.appended).map
      Record.stored) at hread
  rw [hnum, hlast] at hread
  rw [hread] at hdiff
  exact hdiff rfl

end Amdkfd.Ras
