import Amdkfd.Ras.Records

/-!
# The header of the table

What is written before the records reads back, and leaves the records alone as long as they begin
behind it.
-/

namespace Amdkfd.Ras

open Lib

/-! ## Encoding -/

/-- Every field has 32 bits. -/
structure HeaderFits (hdr : TableHeader) : Prop where
  header : hdr.header < 2 ^ 32
  version : hdr.version < 2 ^ 32
  firstRecOffset : hdr.firstRecOffset < 2 ^ 32
  tblSize : hdr.tblSize < 2 ^ 32
  checksum : hdr.checksum < 2 ^ 32

@[simp] theorem length_encodeTableHeaderToBuf (hdr : TableHeader) :
    (encodeTableHeaderToBuf hdr).length = rasTableHeaderSize := by
  simp [encodeTableHeaderToBuf, rasTableHeaderSize]

@[simp] theorem length_encodeTableRasInfoToBuf (rai : RasInfo) :
    (encodeTableRasInfoToBuf rai).length = rasTableV21InfoSize := by
  simp [encodeTableRasInfoToBuf, rasTableV21InfoSize]

theorem decode_encode_header {hdr : TableHeader} (h : HeaderFits hdr) :
    decodeTableHeaderFromBuf (encodeTableHeaderToBuf hdr) = hdr := by
  obtain ⟨h1, h2, h3, h4, h5⟩ := h
  have hlast : ∀ v, readAt (toBytes 4 v) 0 4 = v % 256 ^ 4 := fun v => by
    simpa using readAt_field 4 v []
  cases hdr
  simp only [decodeTableHeaderFromBuf, encodeTableHeaderToBuf, readAt_field, hlast,
    readAt_skip (Nat.le_refl 4), readAt_skip (show 4 ≤ 8 by omega),
    readAt_skip (show 4 ≤ 12 by omega), readAt_skip (show 4 ≤ 16 by omega), Nat.sub_self,
    Nat.reduceSub, TableHeader.mk.injEq]
  refine ⟨?_, ?_, ?_, ?_, ?_⟩ <;> exact Nat.mod_eq_of_lt (by assumption)

theorem negByte_lt (csum : Nat) : negByte csum < 2 ^ 32 := by
  have := Nat.mod_lt (256 - csum % 256) (show 0 < 256 by omega)
  unfold negByte
  omega

def storedHeader (e : Eeprom) : TableHeader :=
  decodeTableHeaderFromBuf (amdgpuEepromRead e 0 rasTableHeaderSize)

/-! ## Writing the header -/

def startEnd (version : Nat) : Nat :=
  if rasTableVerV1 < version then rasTableHeaderSize + rasTableV21InfoSize else rasTableHeaderSize

section
variable {t : Table}

theorem writeTableHeader_read (t : Table) :
    readRun (writeTableHeader t).eeprom 0 rasTableHeaderSize =
      encodeTableHeaderToBuf t.control.tblHdr := by
  have h := readRun_write_self t.eeprom 0 (encodeTableHeaderToBuf t.control.tblHdr)
  rwa [length_encodeTableHeaderToBuf] at h

theorem writeTableHeader_above {addr : Nat} (h : rasTableHeaderSize ≤ addr) (n : Nat) :
    readRun (writeTableHeader t).eeprom addr n = readRun t.eeprom addr n :=
  readRun_write_of_disjoint (.inr (by simpa using h))

theorem writeTableRasInfo_above {addr : Nat}
    (h : rasTableHeaderSize + rasTableV21InfoSize ≤ addr) (n : Nat) :
    readRun (writeTableRasInfo t).eeprom addr n = readRun t.eeprom addr n :=
  readRun_write_of_disjoint (.inr (by simpa using h))

theorem writeTableStart_control (t : Table) : (writeTableStart t).control = t.control := by
  unfold writeTableStart
  split <;> rfl

theorem writeTableStart_header (h : HeaderFits t.control.tblHdr) :
    storedHeader (writeTableStart t).eeprom = t.control.tblHdr := by
  have hread : readRun (writeTableStart t).eeprom 0 rasTableHeaderSize =
      encodeTableHeaderToBuf t.control.tblHdr := by
    unfold writeTableStart
    split
    · rw [← writeTableHeader_read t]
      exact readRun_write_of_disjoint (.inl (Nat.le_of_eq (Nat.zero_add _)))
    · exact writeTableHeader_read t
  rw [storedHeader, amdgpuEepromRead, hread, decode_encode_header h]

theorem writeTableStart_above {addr : Nat} (h : startEnd t.control.tblHdr.version ≤ addr)
    (n : Nat) : readRun (writeTableStart t).eeprom addr n = readRun t.eeprom addr n := by
  unfold startEnd at h
  unfold writeTableStart
  split
  · next hv =>
    rw [if_pos hv] at h
    rw [writeTableRasInfo_above h, writeTableHeader_above (by omega)]
  · next hv =>
    rw [if_neg hv] at h
    exact writeTableHeader_above h n

def RoomForStart (c : Control) : Prop := startEnd c.tblHdr.version ≤ c.rasRecordOffset

theorem writeTableStart_slots (h : RoomForStart t.control) :
    slots (writeTableStart t) = slots t := by
  funext i
  unfold slots
  rw [writeTableStart_control]
  exact writeTableStart_above (Nat.le_trans h (Nat.le_add_right ..)) _

theorem writeTableStart_records (h : RoomForStart t.control) :
    tableRecords (writeTableStart t) = tableRecords t := by
  unfold tableRecords
  rw [writeTableStart_slots h, writeTableStart_control]

end

/-! ## Updating the header -/

structure HeaderUpdated (p : Params) (t t' : Table) : Prop where
  version : t'.control.tblHdr.version = t.control.tblHdr.version
  firstRecOffset : t'.control.tblHdr.firstRecOffset = t.control.tblHdr.firstRecOffset
  header : t'.control.tblHdr.header =
    if p.badPageThreshold ≠ 0 ∧ p.badPageCntThreshold ≤ t.control.rasNumRecs then rasTableHdrBad
    else t.control.tblHdr.header
  tblSize : t'.control.tblHdr.tblSize =
    rasRecordStart t.control.tblHdr.version + t.control.rasNumRecs * rasTableRecordSize
  checksum : t'.control.tblHdr.checksum < 2 ^ 32
  rasRecordOffset : t'.control.rasRecordOffset = t.control.rasRecordOffset
  rasMaxRecordCount : t'.control.rasMaxRecordCount = t.control.rasMaxRecordCount
  rasNumRecs : t'.control.rasNumRecs = t.control.rasNumRecs
  rasFri : t'.control.rasFri = t.control.rasFri
  records : RoomForStart t.control → tableRecords t' = tableRecords t
  stored : HeaderFits t'.control.tblHdr → storedHeader t'.eeprom = t'.control.tblHdr

theorem updateHeader_spec (p : Params) (t : Table) :
    HeaderUpdated p t (amdgpuRasEepromUpdateHeader p t) := by
  unfold amdgpuRasEepromUpdateHeader
  dsimp only
  generalize (if t.control.tblHdr.version = rasTableVerV21 then _ else _ : RasInfo) = rai
  generalize hcsum : negByte _ = csum
  constructor
  all_goals try rw [writeTableStart_control]
  · rw [← hcsum]
    exact negByte_lt _
  · intro h
    exact writeTableStart_records h
  · intro h
    exact writeTableStart_header h

theorem appended_spec (p : Params) {t : Table} (hring : InRing t.control)
    (hroom : RoomForStart t.control) {record : List Record} (hpos : 0 < record.length)
    (hlen : record.length ≤ t.control.rasMaxRecordCount) :
    ∃ t1, TableAppended t record t1 ∧ HeaderUpdated p t1 (amdgpuRasEepromAppend p t record).1 ∧
      RoomForStart t1.control := by
  have happ := append_spec hring hpos hlen
  refine ⟨amdgpuRasEepromAppendTable t record, happ, ?_, ?_⟩
  · unfold amdgpuRasEepromAppend
    rw [if_neg (by omega), if_neg (by omega)]
    exact updateHeader_spec p _
  · unfold RoomForStart
    rw [happ.tblHdr, happ.rasRecordOffset]
    exact hroom

end Amdkfd.Ras
