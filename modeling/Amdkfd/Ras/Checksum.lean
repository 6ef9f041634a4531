import Amdkfd.Ras.Persist

/-!
# The checksum of the table

`__verify_ras_table_checksum` adds up the bytes from the header on, and the records where the
version of the table has them. `amdgpu_ras_eeprom_update_header` adds up the records where
`ras_record_offset` has them, which is another place once `amdgpu_ras_eeprom_reset_table` has
changed the version.
-/

namespace Amdkfd.Ras

open Lib List

/-! ## The promise -/

def verifyRasTableChecksum (t : Table) : Nat :=
  byteSum (amdgpuEepromRead t.eeprom 0
    (rasRecordStart t.control.tblHdr.version + t.control.rasNumRecs * rasTableRecordSize))

inductive Call
  | reset
  | append (record : List Record)
  | correctHeaderTag (header : Nat)

def call (p : Params) (t : Table) : Call → Table
  | .reset => amdgpuRasEepromResetTable p t
  | .append record => (amdgpuRasEepromAppend p t record).1
  | .correctHeaderTag header => amdgpuRasEepromCorrectHeaderTag t header

/-- A table that the EEPROM has is of one of the two versions, and its checksum is one byte and
right. -/
def Initialised (p : Params) (e : Eeprom) : Prop :=
  MakesTable p e ∨
    (Known (storedHeader e).version ∧ (storedHeader e).checksum < 256 ∧
      verifyRasTableChecksum ⟨readControl freshControl e, e⟩ = 0)

def CallOk (t : Table) : Call → Prop
  | .append _ => t.control.rasRecordOffset = rasRecordStart t.control.tblHdr.version
  | _ => True

instance (t : Table) : ∀ op, Decidable (CallOk t op)
  | .append _ => inferInstanceAs (Decidable (_ = _))
  | .reset | .correctHeaderTag _ => isTrue trivial

/-! ## Sums of bytes -/

theorem byteSum_append (xs ys : List UInt8) :
    byteSum (xs ++ ys) = (byteSum xs + byteSum ys) % 256 := by
  rw [byteSum, map_append, sum_append, Nat.add_mod]
  rfl

theorem toBytes_ofBytes (bytes : List UInt8) : toBytes bytes.length (ofBytes bytes) = bytes := by
  induction bytes with
  | nil => rfl
  | cons b bytes ih =>
    have hb := b.toNat_lt
    rw [length_cons, ofBytes, toBytes, show (b.toNat + 256 * ofBytes bytes) / 256 =
      ofBytes bytes by omega, ih]
    congr 1
    refine UInt8.toNat_inj.mp ?_
    rw [UInt8.toNat_ofNat']
    omega

theorem encode_decode_header {buf : List UInt8} (h : buf.length = rasTableHeaderSize) :
    encodeTableHeaderToBuf (decodeTableHeaderFromBuf buf) = buf := by
  have hlen : buf.length = 20 := h
  have hfield (off : Nat) (hoff : off + 4 ≤ 20) :
      toBytes 4 (readAt buf off 4) = (buf.drop off).take 4 := by
    have hbytes := toBytes_ofBytes ((buf.drop off).take 4)
    rwa [length_take, length_drop, hlen, min_eq_left (by omega)] at hbytes
  have hnext (off : Nat) :
      (buf.drop off).take 4 ++ buf.drop (off + 4) = buf.drop off := by
    rw [← drop_drop, take_append_drop]
  have hend : (buf.drop 16).take 4 = buf.drop 16 :=
    take_of_length_le (by rw [length_drop]; omega)
  unfold encodeTableHeaderToBuf decodeTableHeaderFromBuf
  simp only [hfield _ (show 0 + 4 ≤ 20 by omega), hfield _ (show 4 + 4 ≤ 20 by omega),
    hfield _ (show 8 + 4 ≤ 20 by omega), hfield _ (show 12 + 4 ≤ 20 by omega),
    hfield _ (show 16 + 4 ≤ 20 by omega), hend]
  rw [hnext 12, hnext 8, hnext 4, hnext 0, drop_zero]

theorem calcHdrByteSum_eq (hdr : TableHeader) :
    calcHdrByteSum hdr = (tagSum hdr.header + byteSum (toBytes 4 hdr.version ++
      (toBytes 4 hdr.firstRecOffset ++ toBytes 4 hdr.tblSize))) % 256 := by
  unfold calcHdrByteSum tagSum encodeTableHeaderToBuf
  rw [← byteSum_append]
  congr 1

theorem tableByteSum_checksum (c : Control) (csum : Nat) :
    tableByteSum { c with tblHdr := { c.tblHdr with checksum := csum } } = tableByteSum c := by
  unfold tableByteSum
  rw [calcHdrByteSum_eq, calcHdrByteSum_eq]

theorem byteSum_header {hdr : TableHeader} (h : hdr.checksum < 256) :
    byteSum (encodeTableHeaderToBuf hdr) = (calcHdrByteSum hdr + hdr.checksum) % 256 := by
  have hchecksum : byteSum (toBytes 4 hdr.checksum) = hdr.checksum := by
    have hzero : hdr.checksum / 256 = 0 := Nat.div_eq_of_lt h
    simp only [toBytes, hzero, byteSum, map_cons, map_nil, sum_cons, sum_nil,
      UInt8.toNat_ofNat']
    omega
  rw [calcHdrByteSum_eq, tagSum, ← byteSum_append]
  conv_rhs => rw [← hchecksum]
  rw [← byteSum_append]
  simp only [encodeTableHeaderToBuf, append_assoc]

/-! ## The bytes of the table -/

def startSum (version : Nat) (e : Eeprom) : Nat :=
  byteSum (readRun e 0 rasTableHeaderSize) +
    if version = rasTableVerV21 then byteSum (readRun e rasTableHeaderSize rasTableV21InfoSize)
    else 0

theorem verify_eq (t : Table) : verifyRasTableChecksum t =
    (startSum t.control.tblHdr.version t.eeprom + byteSum (readRun t.eeprom
      (rasRecordStart t.control.tblHdr.version)
      (t.control.rasNumRecs * rasTableRecordSize))) % 256 := by
  unfold verifyRasTableChecksum amdgpuEepromRead startSum
  rw [readRun_add, byteSum_append, zero_add]
  unfold rasRecordStart
  split
  · rw [readRun_add, byteSum_append, zero_add]
    omega
  · rw [add_zero]

variable {t : Table}

theorem startSum_write (hknown : Known t.control.tblHdr.version)
    (hchecksum : t.control.tblHdr.checksum < 256) :
    startSum t.control.tblHdr.version (writeTableStart t).eeprom % 256 =
      (tableByteSum t.control + t.control.tblHdr.checksum) % 256 := by
  unfold startSum writeTableStart tableByteSum
  rcases hknown with hv | hv
  · rw [hv, if_neg (by decide), if_neg (by decide), if_neg (by decide), writeTableHeader_read,
      byteSum_header hchecksum]
    omega
  · have hheader : readRun (writeTableRasInfo (writeTableHeader t)).eeprom 0 rasTableHeaderSize =
        encodeTableHeaderToBuf t.control.tblHdr := by
      rw [← writeTableHeader_read t]
      exact readRun_write_of_disjoint (.inl (le_of_eq (zero_add _)))
    have hinfo := readRun_write_self (writeTableHeader t).eeprom rasTableHeaderSize
      (encodeTableRasInfoToBuf t.control.tblRai)
    rw [length_encodeTableRasInfoToBuf] at hinfo
    rw [hv, if_pos (by decide), if_pos rfl, if_pos rfl, hheader, byteSum_header hchecksum,
      show readRun (writeTableRasInfo (writeTableHeader t)).eeprom rasTableHeaderSize
        rasTableV21InfoSize = encodeTableRasInfoToBuf t.control.tblRai from hinfo,
      calcRasInfoByteSum]
    omega

/-! ## What the calls keep -/

structure Checked (t : Table) : Prop where
  known : Known t.control.tblHdr.version
  header : readRun t.eeprom 0 rasTableHeaderSize = encodeTableHeaderToBuf t.control.tblHdr
  checksum : t.control.tblHdr.checksum < 256
  verified : verifyRasTableChecksum t = 0

/-- `csum` is the checksum of the header with what else there is. -/
def withChecksum (c : Control) (csum : Nat) : Control :=
  { c with tblHdr := { c.tblHdr with checksum := csum } }

theorem negByte_add (n : Nat) : (negByte n + n) % 256 = 0 := by
  unfold negByte
  omega

theorem negByte_lt_256 (n : Nat) : negByte n < 256 := Nat.mod_lt _ (by decide)

theorem checked_write {c : Control} {e : Eeprom} {csum : Nat} (hknown : Known c.tblHdr.version)
    (hlt : csum < 256) (heeprom : t.eeprom = (writeTableStart ⟨withChecksum c csum, e⟩).eeprom)
    (hheader : t.control.tblHdr = (withChecksum c csum).tblHdr)
    (hsum : (csum + (byteSum (readRun e (rasRecordStart c.tblHdr.version)
      (t.control.rasNumRecs * rasTableRecordSize)) + tableByteSum c)) % 256 = 0) : Checked t := by
  have hend : startEnd c.tblHdr.version ≤ rasRecordStart c.tblHdr.version := by
    rcases hknown with hv | hv <;> rw [hv] <;> decide
  have hstart : startSum c.tblHdr.version t.eeprom % 256 = (tableByteSum c + csum) % 256 := by
    rw [heeprom, ← tableByteSum_checksum c csum]
    exact startSum_write (t := ⟨withChecksum c csum, e⟩) hknown hlt
  have hversion : t.control.tblHdr.version = c.tblHdr.version := by rw [hheader]; rfl
  refine ⟨hversion ▸ hknown, ?_, by rw [hheader]; exact hlt, ?_⟩
  · rw [heeprom, hheader, ← writeTableHeader_read ⟨withChecksum c csum, e⟩]
    unfold writeTableStart
    split
    · exact readRun_write_of_disjoint (.inl (le_of_eq (zero_add _)))
    · rfl
  · have hrecords (n : Nat) : readRun t.eeprom (rasRecordStart c.tblHdr.version) n =
        readRun e (rasRecordStart c.tblHdr.version) n := by
      rw [heeprom]
      exact writeTableStart_above hend n
    rw [verify_eq, hversion, hrecords]
    omega

theorem Checked.reset (p : Params) (t : Table) : Checked (amdgpuRasEepromResetTable p t) := by
  unfold amdgpuRasEepromResetTable
  extract_lets version _ hdr rai _ c t' _
  have hknown : Known c.tblHdr.version := by
    show version = _ ∨ version = _
    cases hset : p.setsVersion <;> simp [version, hset]
  have hheader : t'.control.tblHdr = (withChecksum c (negByte (tableByteSum c))).tblHdr :=
    congrArg Control.tblHdr (writeTableStart_control _)
  refine checked_write (c := c) (e := t.eeprom) hknown (negByte_lt_256 (tableByteSum c)) rfl
    hheader ?_
  have hnone : byteSum (readRun t.eeprom (rasRecordStart c.tblHdr.version)
      (0 * rasTableRecordSize)) = 0 := by
    rw [zero_mul]
    rfl
  simp only [hnone, zero_add]
  exact negByte_add _

theorem Checked.updateHeader (p : Params) (hknown : Known t.control.tblHdr.version)
    (hoffset : t.control.rasRecordOffset = rasRecordStart t.control.tblHdr.version) :
    Checked (amdgpuRasEepromUpdateHeader p t) := by
  unfold amdgpuRasEepromUpdateHeader
  extract_lets c0 reached _ hdr rai _ c buf csum
  refine checked_write (c := c) (e := t.eeprom) hknown (negByte_lt_256 _) rfl
    (congrArg Control.tblHdr (writeTableStart_control _)) ?_
  rw [writeTableStart_control]
  have hbuf : readRun t.eeprom (rasRecordStart c.tblHdr.version)
      (c.rasNumRecs * rasTableRecordSize) = buf := by
    rw [show rasRecordStart c.tblHdr.version = c.rasRecordOffset from hoffset.symm]
    rfl
  show (csum + (byteSum (readRun t.eeprom (rasRecordStart c.tblHdr.version)
    (c.rasNumRecs * rasTableRecordSize)) + tableByteSum c)) % 256 = 0
  rw [hbuf]
  exact negByte_add _

theorem appendRing_control (t : Table) (buf : List UInt8) (a b : Nat) :
    (appendRing t buf a b).1.control = t.control := by
  unfold appendRing
  dsimp only
  split
  · rfl
  split
  · rfl
  split <;> rfl

theorem Checked.append (p : Params) (h : Checked t) (record : List Record)
    (hok : t.control.rasRecordOffset = rasRecordStart t.control.tblHdr.version) :
    Checked (amdgpuRasEepromAppend p t record).1 := by
  unfold amdgpuRasEepromAppend
  split
  · exact h
  split
  · exact h
  have hheader : (amdgpuRasEepromAppendTable t record).control.tblHdr = t.control.tblHdr := by
    simp only [amdgpuRasEepromAppendTable, appendRing_control]
    rw [foldl_noteChannel_eq]
  have hoffset : (amdgpuRasEepromAppendTable t record).control.rasRecordOffset =
      t.control.rasRecordOffset := by
    simp only [amdgpuRasEepromAppendTable, appendRing_control]
    rw [foldl_noteChannel_eq]
  refine Checked.updateHeader p ?_ ?_
  · rw [hheader]
    exact h.known
  · rw [hheader, hoffset, hok]

theorem tag_sum {tag tag' rest info records checksum : Nat}
    (h : (((tag + rest) % 256 + checksum) % 256 + info + records) % 256 = 0) :
    (((tag' + rest) % 256 + negByte (negByte checksum + negByte tag + tag')) % 256 + info +
      records) % 256 = 0 := by
  unfold negByte
  omega

theorem Checked.correctHeaderTag (h : Checked t) (header : Nat) :
    Checked (amdgpuRasEepromCorrectHeaderTag t header) := by
  unfold amdgpuRasEepromCorrectHeaderTag
  extract_lets hdr csum
  let t' : Table := { t with control := { t.control with tblHdr :=
    { hdr with header := header, checksum := csum } } }
  have hlt : csum < 256 := negByte_lt_256 _
  have hnew : byteSum (encodeTableHeaderToBuf t'.control.tblHdr) = _ := byteSum_header hlt
  have hold := byteSum_header h.checksum
  rw [calcHdrByteSum_eq] at hnew hold
  refine ⟨h.known, writeTableHeader_read t', hlt, ?_⟩
  have habove {addr : Nat} (haddr : rasTableHeaderSize ≤ addr) (n : Nat) :
      readRun (writeTableHeader t').eeprom addr n = readRun t.eeprom addr n :=
    writeTableHeader_above haddr n
  have hverified := h.verified
  rw [verify_eq, startSum, h.header, hold] at hverified
  rw [verify_eq, startSum, writeTableHeader_read, hnew, habove (le_refl _),
    habove (rasRecordStart_le _).1]
  exact tag_sum hverified

/-! ## Runs -/

theorem Checked.readTableRasInfo (h : Checked t) : Checked (readTableRasInfo t) := by
  unfold Ras.readTableRasInfo
  split
  · exact ⟨h.known, h.header, h.checksum, h.verified⟩
  · exact h

theorem checked_load {p : Params} {e : Eeprom} (h : Initialised p e) :
    Checked (load p e []).table := by
  have hinfo (hmake : ¬ MakesTable p e) :
      Checked (readTableRasInfo ⟨readControl freshControl e, e⟩) := by
    obtain ⟨hknown, hchecksum, hverified⟩ := h.resolve_left hmake
    refine Checked.readTableRasInfo ⟨hknown, ?_, hchecksum, hverified⟩
    exact (encode_decode_header (length_readRun e 0 rasTableHeaderSize)).symm
  unfold load amdgpuRasEepromInit
  dsimp only
  split
  · next hval => exact hinfo fun hmake => hmake.1 hval
  split
  · next hbad =>
    have hbase := hinfo fun hmake => hmake.2 hbad
    split
    · exact hbase.correctHeaderTag rasTableHdrVal
    · exact hbase
  · exact Checked.reset p _

/-- The checksum is right in every state of a run whose appends find the record area behind the
header. -/
theorem checksum_of_stepsOk {p : Params} {e : Eeprom} (he : Initialised p e) {ops : List Call}
    (hok : StepsOk (call p) CallOk (load p e []).table ops) (n : Nat) :
    verifyRasTableChecksum (run (call p) (load p e []).table (ops.take n)) = 0 := by
  have hprefix : StepsOk (call p) CallOk (load p e []).table (ops.take n) := by
    rw [← take_append_drop n ops] at hok
    exact ((stepsOk_append (call p)).mp hok).1
  have hrun := run_inv_of_stepsOk (P := Checked) (fun t op h hop => ?_) (checked_load he) hprefix
  · exact hrun.verified
  cases op with
  | reset => exact Checked.reset p t
  | append record => exact h.append p record hop
  | correctHeaderTag header => exact h.correctHeaderTag header

def exMade (setsVersion : Bool) : Table := (load (exParams setsVersion) exBlank.eeprom []).table

/-- A table of version 1 with a record, and then a tag. -/
theorem checksum_of_stepsOk_tag :
    verifyRasTableChecksum (run (call (exParams false)) (exMade false)
      ([Call.append [exRecord], .correctHeaderTag rasTableHdrBad].take 2)) = 0 :=
  checksum_of_stepsOk (.inl (by decide +kernel)) (by decide +kernel) 2

/-- The information area is written over the record, which is not where the check looks for it. -/
theorem checksum_wrong :
    Initialised (exParams true) exBlank.eeprom ∧
      (amdgpuRasEepromAppend (exParams true) (exMade true) [exRecord]).2.isOk ∧
      verifyRasTableChecksum (run (call (exParams true)) (exMade true)
        [Call.append [exRecord]]) ≠ 0 :=
  ⟨.inl (by decide +kernel), by decide +kernel, by decide +kernel⟩

end Amdkfd.Ras
