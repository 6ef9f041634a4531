import Amdkfd.Basic
import Amdkfd.Lib.Bytes
import Amdkfd.Lib.Cells

/-!
# The table of bad pages in the EEPROM

`amdgpu_ras_eeprom.c`: a header, with table version 2.1 an information area behind it, and a ring of
records of 24 bytes. The driver keeps in `control` where the records begin, how many there can be
and are, and which is the first. The device is one that has the EEPROM, memory can be allocated and
all transfers succeed, so that the EEPROM is memory from the address of the table on.
-/

namespace Amdkfd.Ras

open Lib

/-! ## Layout -/

def rasTableHeaderSize : Nat := 20

def rasTableRecordSize : Nat := 24

def rasTableV21InfoSize : Nat := 256

def rasTblSizeBytes : Nat := 256 * 1024

def rasTableHdrVal : Nat := 0x414d4452

def rasTableHdrBad : Nat := 0x42414447

def rasTableVerV1 : Nat := 0x00010000

def rasTableVerV21 : Nat := 0x00021000

def rasRecordStart (version : Nat) : Nat :=
  if version = rasTableVerV21 then rasTableHeaderSize + rasTableV21InfoSize else rasTableHeaderSize

def rasMaxRecordCount (version : Nat) : Nat :=
  (rasTblSizeBytes - rasRecordStart version) / rasTableRecordSize

/-! ## Data -/

structure TableHeader where
  header : Nat
  version : Nat
  firstRecOffset : Nat
  tblSize : Nat
  checksum : Nat
  deriving DecidableEq, Repr

/-- `struct amdgpu_ras_eeprom_table_ras_info`. -/
structure RasInfo where
  rmaStatus : Nat
  healthPercent : Nat
  eccPageThreshold : Nat
  deriving DecidableEq, Repr

/-- `struct eeprom_table_record`. -/
structure Record where
  offset : Nat
  retiredPage : Nat
  ts : Nat
  errType : Nat
  bank : Nat
  memChannel : Nat
  mcumcId : Nat
  deriving DecidableEq, Repr

/-- `struct amdgpu_ras_eeprom_control`, with `update_channel_flag` of the RAS context. -/
structure Control where
  tblHdr : TableHeader
  tblRai : RasInfo
  rasRecordOffset : Nat
  rasNumRecs : Nat
  rasFri : Nat
  rasMaxRecordCount : Nat
  badChannelBitmap : Nat
  updateChannelFlag : Bool

abbrev Eeprom := Nat → UInt8

structure Table where
  control : Control
  eeprom : Eeprom

/-- The module parameter `amdgpu_bad_page_threshold`, `bad_page_cnt_threshold` of the RAS context,
and whether the memory controller has `set_eeprom_table_version`, which asks for version 2.1. -/
structure Params where
  badPageThreshold : Int
  badPageCntThreshold : Nat
  setsVersion : Bool

def amdgpuEepromWrite (eeprom : Eeprom) (addr : Nat) (buf : List UInt8) : Eeprom :=
  ringWrite eeprom addr buf

def amdgpuEepromRead (eeprom : Eeprom) (addr size : Nat) : List UInt8 :=
  readRun eeprom addr size

/-! ## Encoding -/

def encodeTableHeaderToBuf (hdr : TableHeader) : List UInt8 :=
  toBytes 4 hdr.header ++ (toBytes 4 hdr.version ++ (toBytes 4 hdr.firstRecOffset ++
    (toBytes 4 hdr.tblSize ++ toBytes 4 hdr.checksum)))

def decodeTableHeaderFromBuf (buf : List UInt8) : TableHeader :=
  { header := readAt buf 0 4
    version := readAt buf 4 4
    firstRecOffset := readAt buf 8 4
    tblSize := readAt buf 12 4
    checksum := readAt buf 16 4 }

def encodeTableRasInfoToBuf (rai : RasInfo) : List UInt8 :=
  toBytes 1 rai.rmaStatus ++ (toBytes 1 rai.healthPercent ++ (toBytes 2 rai.eccPageThreshold ++
    toBytes (rasTableV21InfoSize - 4) 0))

def decodeTableRasInfoFromBuf (buf : List UInt8) : RasInfo :=
  { rmaStatus := readAt buf 0 1
    healthPercent := readAt buf 1 1
    eccPageThreshold := readAt buf 2 2 }

def encodeTableRecordToBuf (record : Record) : List UInt8 :=
  toBytes 1 record.errType ++ (toBytes 1 record.bank ++ (toBytes 8 record.ts ++
    (toBytes 6 record.offset ++ (toBytes 1 record.memChannel ++ (toBytes 1 record.mcumcId ++
      toBytes 6 record.retiredPage)))))

def decodeTableRecordFromBuf (buf : List UInt8) : Record :=
  { errType := readAt buf 0 1
    bank := readAt buf 1 1
    ts := readAt buf 2 8
    offset := readAt buf 10 6
    memChannel := readAt buf 16 1
    mcumcId := readAt buf 17 1
    retiredPage := readAt buf 18 6 }

/-- A record with its fields cut to the widths in which they are stored. -/
def Record.stored (record : Record) : Record :=
  { offset := record.offset % 2 ^ 48
    retiredPage := record.retiredPage % 2 ^ 48
    ts := record.ts % 2 ^ 64
    errType := record.errType % 2 ^ 8
    bank := record.bank % 2 ^ 8
    memChannel := record.memChannel % 2 ^ 8
    mcumcId := record.mcumcId % 2 ^ 8 }

/-! ## Checksums -/

def byteSum (buf : List UInt8) : Nat := (buf.map (·.toNat)).sum % 256

def calcHdrByteSum (hdr : TableHeader) : Nat := byteSum ((encodeTableHeaderToBuf hdr).take 16)

def calcRasInfoByteSum (rai : RasInfo) : Nat := byteSum (encodeTableRasInfoToBuf rai)

/-- `-csum` as a byte. -/
def negByte (csum : Nat) : Nat := (256 - csum % 256) % 256

def tableByteSum (control : Control) : Nat :=
  calcHdrByteSum control.tblHdr +
    if control.tblHdr.version = rasTableVerV21 then calcRasInfoByteSum control.tblRai else 0

/-! ## Writing and reading -/

def writeTableHeader (t : Table) : Table :=
  { t with eeprom := amdgpuEepromWrite t.eeprom 0 (encodeTableHeaderToBuf t.control.tblHdr) }

def writeTableRasInfo (t : Table) : Table :=
  { t with
    eeprom :=
      amdgpuEepromWrite t.eeprom rasTableHeaderSize (encodeTableRasInfoToBuf t.control.tblRai) }

def writeTableStart (t : Table) : Table :=
  if rasTableVerV1 < t.control.tblHdr.version then writeTableRasInfo (writeTableHeader t)
  else writeTableHeader t

def rasIndexToOffset (control : Control) (n : Nat) : Nat :=
  control.rasRecordOffset + n * rasTableRecordSize

def amdgpuRasEepromWriteAt (t : Table) (buf : List UInt8) (fri : Nat) : Table :=
  { t with eeprom := amdgpuEepromWrite t.eeprom (rasIndexToOffset t.control fri) buf }

def amdgpuRasEepromReadAt (t : Table) (fri num : Nat) : List UInt8 :=
  amdgpuEepromRead t.eeprom (rasIndexToOffset t.control fri) (num * rasTableRecordSize)

def noteChannel (control : Control) (record : Record) : Control :=
  if record.memChannel < 32 ∧ ¬ control.badChannelBitmap.testBit record.memChannel then
    { control with
      badChannelBitmap := control.badChannelBitmap ||| 1 <<< record.memChannel
      updateChannelFlag := true }
  else control

/-- `amdgpu_ras_eeprom_append_table`, from the places `a` and `b` of the first and the last record
on, before they are taken modulo the size of the ring: what is written, the index of the first
record, and `b`. -/
def appendRing (t : Table) (buf : List UInt8) (a b : Nat) : Table × Nat × Nat :=
  let n := t.control.rasMaxRecordCount
  let fri := t.control.rasFri
  if b < n then (amdgpuRasEepromWriteAt t buf a, fri, b)
  else if a < n then
    let g0 := n - a
    let g1 := b % n + 1
    let t := amdgpuRasEepromWriteAt t (buf.take (g0 * rasTableRecordSize)) a
    let t := amdgpuRasEepromWriteAt t (buf.drop (g0 * rasTableRecordSize)) 0
    (t, if fri < g1 then g1 % n else fri, b)
  else
    let a := a % n
    let b := b % n
    if a ≤ b then
      (amdgpuRasEepromWriteAt t buf a, if fri ≤ b then (b + 1) % n else fri, b)
    else
      let g0 := n - a
      let g1 := b + 1
      let t := amdgpuRasEepromWriteAt t (buf.take (g0 * rasTableRecordSize)) a
      let t := amdgpuRasEepromWriteAt t (buf.drop (g0 * rasTableRecordSize)) 0
      (t, g1 % n, b)

def amdgpuRasEepromAppendTable (t : Table) (record : List Record) : Table :=
  let buf := record.flatMap encodeTableRecordToBuf
  let t := { t with control := record.foldl noteChannel t.control }
  let a := t.control.rasFri + t.control.rasNumRecs
  let r := appendRing t buf a (a + record.length - 1)
  let n := t.control.rasMaxRecordCount
  { r.1 with
    control :=
      { r.1.control with
        rasFri := r.2.1
        rasNumRecs := 1 + (n + r.2.2 - r.2.1) % n } }

def amdgpuRasEepromUpdateHeader (p : Params) (t : Table) : Table :=
  let c := t.control
  let reached := p.badPageThreshold ≠ 0 ∧ p.badPageCntThreshold ≤ c.rasNumRecs
  let hdr : TableHeader :=
    { c.tblHdr with
      header := if reached then rasTableHdrBad else c.tblHdr.header
      tblSize := rasRecordStart c.tblHdr.version + c.rasNumRecs * rasTableRecordSize
      checksum := 0 }
  let rai : RasInfo :=
    if c.tblHdr.version = rasTableVerV21 then
      if reached then { c.tblRai with rmaStatus := 2, healthPercent := 0 }
      else if p.badPageThreshold ≠ 0 then
        { c.tblRai with
          healthPercent :=
            (p.badPageCntThreshold - c.rasNumRecs) * 100 / p.badPageCntThreshold }
      else c.tblRai
    else c.tblRai
  let c := { c with tblHdr := hdr, tblRai := rai }
  let buf := amdgpuEepromRead t.eeprom c.rasRecordOffset (c.rasNumRecs * rasTableRecordSize)
  let csum := negByte (byteSum buf + tableByteSum c)
  writeTableStart { t with control := { c with tblHdr := { hdr with checksum := csum } } }

def amdgpuRasEepromAppend (p : Params) (t : Table) (record : List Record) :
    Table × Except Errno Unit :=
  if record.length = 0 then (t, .error .einval)
  else if t.control.rasMaxRecordCount < record.length then (t, .error .einval)
  else (amdgpuRasEepromUpdateHeader p (amdgpuRasEepromAppendTable t record), .ok ())

def decodeTableRecords (buf : List UInt8) (num : Nat) : List Record :=
  (List.range num).map fun i => decodeTableRecordFromBuf (buf.drop (i * rasTableRecordSize))

def amdgpuRasEepromRead (t : Table) (num : Nat) : Table × Except Errno (List Record) :=
  let n := t.control.rasMaxRecordCount
  let fri := t.control.rasFri
  if num = 0 then (t, .error .einval)
  else if t.control.rasNumRecs < num then (t, .error .einval)
  else
    let last := fri + num - 1
    let g0 := if last < n then num else n - fri
    let g1 := if last < n then 0 else last % n + 1
    let buf := amdgpuRasEepromReadAt t fri g0 ++
      if g1 ≠ 0 then amdgpuRasEepromReadAt t 0 g1 else []
    let record := decodeTableRecords buf num
    ({ t with control := record.foldl noteChannel t.control }, .ok record)

/-! ## Reset and initialisation -/

/-- `amdgpu_ras_eeprom_reset_table`. Where the records begin and how many there can be stay as they
were. -/
def amdgpuRasEepromResetTable (p : Params) (t : Table) : Table :=
  let version := if p.setsVersion then rasTableVerV21 else rasTableVerV1
  let hdr : TableHeader :=
    { t.control.tblHdr with
      header := rasTableHdrVal
      version := version
      firstRecOffset := rasRecordStart version
      tblSize := rasRecordStart version }
  let rai : RasInfo :=
    if version = rasTableVerV21 then ⟨0, 100, p.badPageCntThreshold⟩ else t.control.tblRai
  let c := { t.control with tblHdr := hdr, tblRai := rai }
  let t := writeTableStart
    { t with control := { c with tblHdr := { hdr with checksum := negByte (tableByteSum c) } } }
  { t with
    control :=
      { t.control with
        rasNumRecs := 0
        rasFri := 0
        badChannelBitmap := 0
        updateChannelFlag := false } }

def tagSum (header : Nat) : Nat := byteSum (toBytes 4 header)

def amdgpuRasEepromCorrectHeaderTag (t : Table) (header : Nat) : Table :=
  let hdr := t.control.tblHdr
  let csum := negByte (negByte hdr.checksum + negByte (tagSum hdr.header) + tagSum header)
  writeTableHeader
    { t with control := { t.control with tblHdr :=
      { hdr with header := header, checksum := csum } } }

def readControl (c : Control) (eeprom : Eeprom) : Control :=
  let hdr := decodeTableHeaderFromBuf (amdgpuEepromRead eeprom 0 rasTableHeaderSize)
  let start := rasRecordStart hdr.version
  { c with
    tblHdr := hdr
    rasNumRecs := (hdr.tblSize + 2 ^ 32 - start) % 2 ^ 32 / rasTableRecordSize
    rasRecordOffset := start
    rasMaxRecordCount := rasMaxRecordCount hdr.version
    rasFri := (hdr.firstRecOffset + 2 ^ 32 - start) % 2 ^ 32 / rasTableRecordSize }

def readTableRasInfo (t : Table) : Table :=
  if t.control.tblHdr.version = rasTableVerV21 then
    { t with
      control :=
        { t.control with
          tblRai := decodeTableRasInfoFromBuf
            (amdgpuEepromRead t.eeprom rasTableHeaderSize rasTableV21InfoSize) } }
  else t

/-- `amdgpu_ras_eeprom_init`: the table, and `exceed_err_limit`. A checksum that is wrong is only
reported. -/
def amdgpuRasEepromInit (p : Params) (t : Table) : Table × Bool :=
  let t := { t with control := readControl t.control t.eeprom }
  let tag := t.control.tblHdr.header
  if tag = rasTableHdrVal then (readTableRasInfo t, false)
  else if tag = rasTableHdrBad ∧ p.badPageThreshold ≠ 0 then
    let t := readTableRasInfo t
    if t.control.rasNumRecs < p.badPageCntThreshold then
      (amdgpuRasEepromCorrectHeaderTag t rasTableHdrVal, false)
    else (t, p.badPageThreshold ≠ -1)
  else (amdgpuRasEepromResetTable p t, false)

end Amdkfd.Ras
